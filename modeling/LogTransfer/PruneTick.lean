import LogTransfer.LogRetention
import Mathlib.Data.List.Chain

/-!
# The daily pruning

The server looks at its clock about once an hour and prunes in one hour of the
day, once for each date.
-/

set_option autoImplicit false

namespace LogTransfer.Logging
open Program FileStore

section Source

variable (zone : Zone)

/-- What the clock reads at a tick and, when a line is logged, after it. -/
structure Tick where
  now : ℤ
  logged : Option CivilTime
  deriving DecidableEq, Repr

structure PruneWatch where
  logger : Logger
  lastPruneDate : Bytes

namespace PruneWatch

def prunedMessage (pruned : ℕ) : Bytes :=
  bytesOf "Pruned " ++ decimal pruned ++ bytesOf " expired log directory(ies)"

/-- The callback of the timer, which sets the timer again. -/
def onPruneTick (w : PruneWatch) (tick : Tick) : LP PruneWatch :=
  match zone.localTime tick.now with
  | none => pure w
  | some moment =>
    if moment.hour = kLogPruneHour ∧ w.lastPruneDate ≠ dateStringOf moment then do
      let pruned ← w.logger.pruneOldLogs zone tick.now kLogRetentionDays
      if pruned > 0 then do
        let logger ← w.logger.log tick.logged .info (prunedMessage pruned)
        pure ⟨logger, dateStringOf moment⟩
      else pure { w with lastPruneDate := dateStringOf moment }
    else pure w

def pruneTicks (w : PruneWatch) : List Tick → LP PruneWatch
  | [] => pure w
  | tick::ticks => do
    let w ← w.onPruneTick zone tick
    w.pruneTicks ticks

end PruneWatch

def Call.reference : Call → Option ℤ
  | .pruneOldLogs reference _ => some reference
  | .openFile _ _ _ | .log _ _ _ | .close => none

/-- The times that `pruneOldLogs` is called with. -/
def prunesOf (calls : List Call) : List ℤ := calls.filterMap Call.reference

end Source

section Pace

/-! Readings of a clock that are neither too close nor too far apart. -/

def Paced (p q : ℤ) (xs : List ℤ) : Prop := xs.IsChain fun a b => a + p ≤ b ∧ b ≤ a + q

variable {p q : ℤ} {xs : List ℤ}

theorem paced_get (h : Paced p q xs) {i : ℕ} (k : ℕ) (hk : i + k < xs.length) :
    xs[i] + k * p ≤ xs[i + k] ∧ xs[i + k] ≤ xs[i] + k * q := by
  induction k with
  | zero => simp
  | succ k ih =>
    obtain ⟨hlow, hhigh⟩ := ih (by omega)
    obtain ⟨hp, hq⟩ := List.isChain_iff_getElem.mp h (i + k) hk
    push_cast
    rw [add_one_mul, add_one_mul]
    change xs[i] + _ ≤ xs[i + k + 1] ∧ xs[i + k + 1] ≤ xs[i] + _
    exact ⟨by omega, by omega⟩

theorem paced_mono (h : Paced p q xs) (hp : 0 ≤ p) {i j : ℕ} (hij : i ≤ j) (hj : j < xs.length) :
    xs[i] ≤ xs[j] := by
  obtain ⟨k, rfl⟩ := Nat.exists_eq_add_of_le hij
  have hget := (paced_get h k hj).1
  have hpos : 0 ≤ k * p := Int.mul_nonneg (Int.natCast_nonneg k) hp
  omega

/-- The readings miss a window at most every other time that it comes. -/
theorem paced_window (h : Paced p q xs) (hp : 0 ≤ p) (hpq : p ≤ q) (n : ℕ)
    {start width period : ℤ} (hw : 0 < width) (hperiod : 0 ≤ period)
    (hlow : period ≤ width + n * p) (hhigh : (n + 1) * q ≤ period + width)
    (hbefore : ∃ a ∈ xs, a ≤ start) (hafter : ∃ b ∈ xs, start + period + width ≤ b) :
    ∃ x ∈ xs, start ≤ x ∧ x < start + width ∨
      start + period ≤ x ∧ x < start + period + width := by
  obtain ⟨a, ha, hstart⟩ := hbefore
  obtain ⟨b, hb, hend⟩ := hafter
  obtain ⟨m, hm, rfl⟩ := List.mem_iff_getElem.mp ha
  obtain ⟨j, hj, rfl⟩ := List.mem_iff_getElem.mp hb
  have hreach : ∃ i, ∃ h : i < xs.length, start ≤ xs[i] := ⟨j, hj, by omega⟩
  obtain ⟨i, ⟨hi, hfirst⟩, hless⟩ : ∃ i, (∃ h : i < xs.length, start ≤ xs[i]) ∧
      ∀ k < i, ¬ ∃ h : k < xs.length, start ≤ xs[k] :=
    ⟨Nat.find hreach, Nat.find_spec hreach, fun k hk => Nat.find_min hreach hk⟩
  rw [add_one_mul] at hhigh
  by_cases hin : xs[i] < start + width
  · exact ⟨xs[i], List.getElem_mem hi, .inl ⟨hfirst, hin⟩⟩
  · -- the reading before this one is before the window
    have hlate : xs[i] < start + q := by
      cases i with
      | zero =>
        have hfront := paced_mono h hp (Nat.zero_le m) hm
        omega
      | succ i =>
        have hprev : xs[i] < start := by
          by_contra hnot
          exact hless i (Nat.lt_succ_self i) ⟨by omega, by omega⟩
        have hnext := (List.isChain_iff_getElem.mp h i hi).2
        omega
    have hlong : i + n < xs.length := by
      by_contra hshort
      have hij : i ≤ j := by
        by_contra hji
        exact hless j (by omega) ⟨hj, by omega⟩
      obtain ⟨k, rfl⟩ := Nat.exists_eq_add_of_le hij
      have hk := (paced_get h k hj).2
      have hkn : (k : ℤ) * q ≤ n * q :=
        Int.mul_le_mul_of_nonneg_right (by omega) (hp.trans hpq)
      omega
    obtain ⟨hfrom, hto⟩ := paced_get h n hlong
    exact ⟨xs[i + n], List.getElem_mem hlong, .inr ⟨by omega, by omega⟩⟩

end Pace

section Dates

variable {zone : Zone} {t u : CivilTime}

theorem dateStringOf_eq (ht : t.Valid) (hu : u.Valid) :
    dateStringOf t = dateStringOf u ↔ dayOf t = dayOf u := by
  have hlt := lexLt_dates ht hu
  have hgt := lexLt_dates hu ht
  unfold dayOf
  constructor
  · intro h
    rw [h] at hlt hgt
    have hself := lexLt_irrefl (dateStringOf u)
    have hbefore := mt hlt.mpr hself
    have hafter := mt hgt.mpr hself
    omega
  · intro h
    obtain hl | he | hl := lexLt_trichotomy (dateStringOf t) (dateStringOf u)
    · exact absurd (hlt.mp hl) (by omega)
    · exact he
    · exact absurd (hgt.mp hl) (by omega)

theorem pruneHour_iff (ht : t.Valid) : t.hour = kLogPruneHour ↔
    dayOf t * 86400 + 10800 ≤ t.seconds ∧ t.seconds < dayOf t * 86400 + 14400 := by
  obtain ⟨-, hh, hm, hs⟩ := ht
  unfold CivilTime.seconds dayOf kLogPruneHour
  omega

/-- The clock has not been set back to an earlier date. -/
def Onward (zone : Zone) (now later : ℤ) : Prop :=
  ∀ t u, zone.localTime now = some t → zone.localTime later = some u → dayOf t ≤ dayOf u

/-- A reading in the hour of the day for pruning. -/
def PruneTime (zone : Zone) (now : ℤ) (t : CivilTime) : Prop :=
  zone.localTime now = some t ∧ t.hour = kLogPruneHour

end Dates

section Prunings

variable {zone : Zone}

def pruneDate (zone : Zone) (last : Bytes) (now : ℤ) : Option Bytes :=
  (zone.localTime now).bind fun t =>
    if t.hour = kLogPruneHour ∧ last ≠ dateStringOf t then some (dateStringOf t) else none

/-- The ticks at which the log is pruned, given the date of the last time. -/
def prunings (zone : Zone) (last : Bytes) : List ℤ → List ℤ
  | [] => []
  | now::rest => (pruneDate zone last now).elim (prunings zone last rest) fun date =>
      now :: prunings zone date rest

theorem pruneDate_some {last date : Bytes} {now : ℤ} :
    pruneDate zone last now = some date ↔
      ∃ t, PruneTime zone now t ∧ last ≠ date ∧ date = dateStringOf t := by
  simp only [pruneDate, Option.bind_eq_some_iff, Option.ite_none_right_eq_some, Option.some.injEq,
    PruneTime]
  constructor
  · rintro ⟨t, ht, ⟨hour, hne⟩, rfl⟩
    exact ⟨t, ⟨ht, hour⟩, hne, rfl⟩
  · rintro ⟨t, ⟨ht, hour⟩, hne, rfl⟩
    exact ⟨t, ht, ⟨hour, hne⟩, rfl⟩

theorem pruneDate_none {last : Bytes} {now : ℤ} {t : CivilTime}
    (h : pruneDate zone last now = none) (ht : PruneTime zone now t) : dateStringOf t = last := by
  by_contra hne
  rw [pruneDate_some.mpr ⟨t, ht, fun he => hne he.symm, rfl⟩] at h
  cases h

theorem prunings_due {last : Bytes} {nows : List ℤ} :
    ∀ now ∈ prunings zone last nows, now ∈ nows ∧ ∃ t, PruneTime zone now t := by
  induction nows generalizing last with
  | nil => exact fun now h => by cases h
  | cons first rest ih =>
    intro now h
    rw [prunings] at h
    cases hd : pruneDate zone last first with
    | none =>
      rw [hd] at h
      obtain ⟨hm, ht⟩ := ih now h
      exact ⟨List.mem_cons_of_mem _ hm, ht⟩
    | some date =>
      rw [hd] at h
      obtain rfl | h := List.mem_cons.mp h
      · obtain ⟨t, ht, -⟩ := pruneDate_some.mp hd
        exact ⟨List.mem_cons_self, t, ht⟩
      · obtain ⟨hm, ht⟩ := ih now h
        exact ⟨List.mem_cons_of_mem _ hm, ht⟩

/-- No date with a tick in the hour is left out. -/
theorem prunings_cover {last : Bytes} {nows : List ℤ} {now : ℤ} {t : CivilTime} (h : now ∈ nows)
    (ht : PruneTime zone now t) (hl : dateStringOf t ≠ last) :
    ∃ other ∈ prunings zone last nows, ∃ u, PruneTime zone other u ∧
      dateStringOf u = dateStringOf t := by
  induction nows generalizing last with
  | nil => cases h
  | cons first rest ih =>
    rw [prunings]
    cases hd : pruneDate zone last first with
    | none =>
      obtain rfl | h := List.mem_cons.mp h
      · exact absurd (pruneDate_none hd ht) hl
      · exact ih h hl
    | some date =>
      obtain ⟨u, hu, -, rfl⟩ := pruneDate_some.mp hd
      by_cases he : dateStringOf u = dateStringOf t
      · exact ⟨first, List.mem_cons_self, u, hu, he⟩
      · obtain rfl | h := List.mem_cons.mp h
        · exact absurd (congrArg dateStringOf (Option.some.inj (hu.1.symm.trans ht.1))) he
        · obtain ⟨other, ho, hother⟩ := ih h fun heq => he heq.symm
          exact ⟨other, List.mem_cons_of_mem _ ho, hother⟩

/-- While the clock goes on, the dates only get later. -/
theorem prunings_later {last : Bytes} {nows : List ℤ} (h : nows.Pairwise (Onward zone))
    (hl : ∀ now ∈ nows, ∀ t, zone.localTime now = some t →
      last = dateStringOf t ∨ lexLt last (dateStringOf t) = true) :
    (∀ now ∈ prunings zone last nows, ∀ t, zone.localTime now = some t →
      lexLt last (dateStringOf t) = true) ∧
      (prunings zone last nows).Pairwise fun now later => ∀ t u, zone.localTime now = some t →
        zone.localTime later = some u → dayOf t < dayOf u := by
  induction nows generalizing last with
  | nil => exact ⟨fun now h => (by cases h), List.Pairwise.nil⟩
  | cons first rest ih =>
    obtain ⟨hfirst, hrest⟩ := List.pairwise_cons.mp h
    rw [prunings]
    cases hd : pruneDate zone last first with
    | none => exact ih hrest fun now hm => hl now (List.mem_cons_of_mem _ hm)
    | some date =>
      obtain ⟨u, hu, hne, rfl⟩ := pruneDate_some.mp hd
      have huv := (zone.reads _ _ hu.1).1
      have hnow : lexLt last (dateStringOf u) = true :=
        (hl first List.mem_cons_self u hu.1).resolve_left hne
      have hnext : ∀ now ∈ rest, ∀ t, zone.localTime now = some t →
          dateStringOf u = dateStringOf t ∨ lexLt (dateStringOf u) (dateStringOf t) = true := by
        intro now hm t ht
        have htv := (zone.reads _ _ ht).1
        obtain hlt | heq := (hfirst now hm u t hu.1 ht).lt_or_eq
        · exact .inr ((lexLt_dates huv htv).mpr hlt)
        · exact .inl ((dateStringOf_eq huv htv).mpr heq)
      obtain ⟨hlater, hpair⟩ := ih hrest hnext
      constructor
      · intro now hm t ht
        obtain rfl | hm := List.mem_cons.mp hm
        · obtain rfl := Option.some.inj (hu.1.symm.trans ht)
          exact hnow
        · exact lexLt_trans hnow (hlater now hm t ht)
      · refine List.pairwise_cons.mpr ⟨fun later hm t t' ht ht' => ?_, hpair⟩
        obtain rfl := Option.some.inj (hu.1.symm.trans ht)
        exact (lexLt_dates huv (zone.reads _ _ ht').1).mp (hlater later hm t' ht')

end Prunings

section Runs

variable {zone : Zone} {R : Rules Op Ans Store} {w w' : PruneWatch} {s s' : Store}

theorem tick_calls {tick : Tick} (he : Ends Store.next R (w.onPruneTick zone tick) s s' w') :
    ∃ calls, Run zone R w.logger s calls w'.logger s' ∧
      prunesOf calls = (pruneDate zone w.lastPruneDate tick.now).elim [] (fun _ => [tick.now]) ∧
      w'.lastPruneDate = (pruneDate zone w.lastPruneDate tick.now).getD w.lastPruneDate := by
  rw [PruneWatch.onPruneTick] at he
  rw [pruneDate]
  cases ht : zone.localTime tick.now with
  | none =>
    rw [ht] at he
    obtain ⟨rfl, rfl⟩ := he
    exact ⟨[], .start, rfl, rfl⟩
  | some t =>
    simp only [ht] at he
    rw [Option.bind_some]
    split at he
    · rename_i hdue
      rw [if_pos hdue]
      obtain ⟨s₁, pruned, hprune, he⟩ := ends_bind.mp he
      have hcall : Ends Store.next R (perform zone w.logger
          (.pruneOldLogs tick.now kLogRetentionDays)) s s₁ w.logger :=
        ends_bind.mpr ⟨s₁, pruned, hprune, rfl, rfl⟩
      have hfirst := Run.call _ .start hcall
      split at he
      · obtain ⟨s₂, logger, hlog, rfl, rfl⟩ := ends_bind.mp he
        exact ⟨_, .call (.log tick.logged .info _) hfirst hlog, rfl, rfl⟩
      · obtain ⟨rfl, rfl⟩ := he
        exact ⟨_, hfirst, rfl, rfl⟩
    · rename_i hdue
      rw [if_neg hdue]
      obtain ⟨rfl, rfl⟩ := he
      exact ⟨[], .start, rfl, rfl⟩

theorem ticks_calls {ticks : List Tick}
    (he : Ends Store.next R (w.pruneTicks zone ticks) s s' w') :
    ∃ calls, Run zone R w.logger s calls w'.logger s' ∧
      prunesOf calls = prunings zone w.lastPruneDate (ticks.map Tick.now) := by
  induction ticks generalizing w s with
  | nil =>
    obtain ⟨rfl, rfl⟩ := he
    exact ⟨[], .start, rfl⟩
  | cons tick rest ih =>
    obtain ⟨s₁, w₁, hfirst, hrest⟩ := ends_bind.mp he
    obtain ⟨calls, hr, hp, hl⟩ := tick_calls hfirst
    obtain ⟨more, hr', hp'⟩ := ih hrest
    refine ⟨calls ++ more, run_append hr hr', ?_⟩
    rw [prunesOf, List.filterMap_append, ← prunesOf, ← prunesOf, hp, hp', hl, List.map_cons,
      prunings]
    cases pruneDate zone w.lastPruneDate tick.now <;> rfl

theorem prunes_cover {calls : List Call} {nows : List ℤ}
    (hp : prunesOf calls = prunings zone [] nows) {now : ℤ} {t : CivilTime} (hm : now ∈ nows)
    (ht : PruneTime zone now t) :
    ∃ other ∈ prunesOf calls, ∃ u, PruneTime zone other u ∧ dayOf u = dayOf t := by
  obtain ⟨other, ho, u, hu, heq⟩ := prunings_cover hm ht (dateStringOf_ne t)
  have hvalid := (zone.reads _ _ hu.1).1
  exact ⟨other, hp ▸ ho, u, hu, (dateStringOf_eq hvalid (zone.reads _ _ ht.1).1).mp heq⟩

/-- Whatever the clock reads, a date with a tick in the hour is pruned, and nothing is pruned at
any other time; while the clock goes on, no date is pruned twice. -/
theorem prune_once {ticks : List Tick} (hw : w.lastPruneDate = [])
    (he : Ends Store.next R (w.pruneTicks zone ticks) s s' w') :
    ∃ calls, Run zone R w.logger s calls w'.logger s' ∧
      (∀ now ∈ prunesOf calls, now ∈ ticks.map Tick.now ∧ ∃ t, PruneTime zone now t) ∧
      (∀ now ∈ ticks.map Tick.now, ∀ t, PruneTime zone now t →
        ∃ other ∈ prunesOf calls, ∃ u, PruneTime zone other u ∧ dayOf u = dayOf t) ∧
      ((ticks.map Tick.now).Pairwise (Onward zone) →
        (prunesOf calls).Pairwise fun now later => ∀ t u, zone.localTime now = some t →
          zone.localTime later = some u → dayOf t < dayOf u) := by
  obtain ⟨calls, hr, hp⟩ := ticks_calls he
  rw [hw] at hp
  refine ⟨calls, hr, hp ▸ prunings_due, fun now hm t ht => prunes_cover hp hm ht, fun hon => ?_⟩
  rw [hp]
  refine (prunings_later hon fun now _ t _ => .inr ?_).2
  obtain ⟨b, rest, hcons⟩ := List.exists_cons_of_ne_nil (dateStringOf_ne t)
  rw [hcons]
  rfl

/-- Every full hour from two o'clock of one day to four o'clock of the next. -/
def sampleHours : List CivilTime :=
  (List.range 27).map fun i => ⟨2026, 8, 16 + (i + 2) / 24, (i + 2) % 24, 0, 0⟩

def hourlyZone : Zone := .utc sampleHours (by
  have hday : ∀ d, 1 ≤ d → d ≤ 31 → ValidDay 2026 8 d := fun d h h' =>
    ⟨by decide, by decide, h, h'⟩
  intro c hc
  obtain ⟨i, hi, rfl⟩ := List.mem_map.mp hc
  have hlt := List.mem_range.mp hi
  have hhour : (i + 2) % 24 ≤ 23 := by omega
  exact ⟨⟨hday (16 + (i + 2) / 24) (by omega) (by omega), hhour, Nat.zero_le _, Nat.zero_le _⟩,
    show 1000 ≤ 2026 by decide⟩)

def sampleTicks : List Tick := sampleHours.map fun c => ⟨c.seconds, some c⟩

def sampleWatch : LP PruneWatch :=
  PruneWatch.pruneTicks hourlyZone ⟨(sampleRun []).1, []⟩ sampleTicks

def sampleWatched : PruneWatch × (Store × List Bool) := eval scripted sampleWatch (sampleDays, [])

theorem prune_once_hourly :
    ∃ calls, Run hourlyZone anyway (sampleRun []).1 sampleDays calls sampleWatched.1.logger
        sampleWatched.2.1 ∧
      (∀ now ∈ prunesOf calls, now ∈ sampleTicks.map Tick.now ∧ ∃ t, PruneTime hourlyZone now t) ∧
      (∀ now ∈ sampleTicks.map Tick.now, ∀ t, PruneTime hourlyZone now t →
        ∃ other ∈ prunesOf calls, ∃ u, PruneTime hourlyZone other u ∧ dayOf u = dayOf t) ∧
      ((sampleTicks.map Tick.now).Pairwise (Onward hourlyZone) →
        (prunesOf calls).Pairwise fun now later => ∀ t u, hourlyZone.localTime now = some t →
          hourlyZone.localTime later = some u → dayOf t < dayOf u) :=
  prune_once rfl (ends_scripted sampleWatch sampleDays [])

/-- If a tick comes an hour after the last, or up to two and a half minutes later, one of any two
dates in a row is pruned. -/
theorem prune_alternate {ticks : List Tick} {readings : List CivilTime}
    (hw : w.lastPruneDate = [])
    (hread : (ticks.map Tick.now).map zone.localTime = readings.map some)
    (hpace : Paced 3600 3750 (readings.map CivilTime.seconds))
    (he : Ends Store.next R (w.pruneTicks zone ticks) s s' w') :
    ∃ calls, Run zone R w.logger s calls w'.logger s' ∧
      ∀ day : ℤ, (∃ t ∈ readings, t.seconds ≤ day * 86400 + 10800) →
        (∃ t ∈ readings, (day + 1) * 86400 + 14400 ≤ t.seconds) →
        ∃ now ∈ prunesOf calls, ∃ t, PruneTime zone now t ∧
          (dayOf t = day ∨ dayOf t = day + 1) := by
  obtain ⟨calls, hr, hp⟩ := ticks_calls he
  rw [hw] at hp
  refine ⟨calls, hr, fun day hbefore hafter => ?_⟩
  have hwindow : ∃ x ∈ readings.map CivilTime.seconds,
      day * 86400 + 10800 ≤ x ∧ x < day * 86400 + 10800 + 3600 ∨
        day * 86400 + 10800 + 86400 ≤ x ∧ x < day * 86400 + 10800 + 86400 + 3600 := by
    refine paced_window hpace (by decide) (by decide) 23 (by decide) (by decide) (by decide)
      (by decide) ?_ ?_
    · obtain ⟨t, ht, hle⟩ := hbefore
      exact ⟨_, List.mem_map_of_mem ht, hle⟩
    · obtain ⟨t, ht, hle⟩ := hafter
      exact ⟨_, List.mem_map_of_mem ht, by omega⟩
  obtain ⟨x, hx, hin⟩ := hwindow
  obtain ⟨t, ht, rfl⟩ := List.mem_map.mp hx
  obtain ⟨now, hm, hnow⟩ : ∃ now ∈ ticks.map Tick.now, zone.localTime now = some t :=
    List.mem_map.mp (hread ▸ List.mem_map_of_mem ht)
  have hvalid := (zone.reads _ _ hnow).1
  obtain ⟨hfrom, hto⟩ | ⟨hfrom, hto⟩ := hin
  · have hday := dayOf_unique hvalid (n := day) (by omega) (by omega)
    have hhour := (pruneHour_iff hvalid).mpr ⟨by omega, by omega⟩
    obtain ⟨other, ho, u, hu, heq⟩ := prunes_cover hp hm ⟨hnow, hhour⟩
    exact ⟨other, ho, u, hu, .inl (heq.trans hday)⟩
  · have hday := dayOf_unique hvalid (n := day + 1) (by omega) (by omega)
    have hhour := (pruneHour_iff hvalid).mpr ⟨by omega, by omega⟩
    obtain ⟨other, ho, u, hu, heq⟩ := prunes_cover hp hm ⟨hnow, hhour⟩
    exact ⟨other, ho, u, hu, .inr (heq.trans hday)⟩

theorem prune_alternate_hourly :
    ∃ calls, Run hourlyZone anyway (sampleRun []).1 sampleDays calls sampleWatched.1.logger
        sampleWatched.2.1 ∧
      ∀ day : ℤ, (∃ t ∈ sampleHours, t.seconds ≤ day * 86400 + 10800) →
        (∃ t ∈ sampleHours, (day + 1) * 86400 + 14400 ≤ t.seconds) →
        ∃ now ∈ prunesOf calls, ∃ t, PruneTime hourlyZone now t ∧
          (dayOf t = day ∨ dayOf t = day + 1) := by
  have hread : (sampleTicks.map Tick.now).map hourlyZone.localTime = sampleHours.map some := by
    decide
  have hpace : Paced 3600 3750 (sampleHours.map CivilTime.seconds) := by
    unfold Paced
    decide
  exact prune_alternate rfl hread hpace (ends_scripted sampleWatch sampleDays [])

end Runs

end LogTransfer.Logging
