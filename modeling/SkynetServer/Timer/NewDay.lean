import Mathlib.Data.Int.Basic
import Mathlib.Data.Int.SuccPred
import Mathlib.Data.List.Chain
import Mathlib.Data.List.Induction

/-!
# The timer and the new day

The loop of `timer_server.lua` looks at the clock five times a second. A second that it has not seen yet goes to
`check_new_hour_come`, which compares the hour with the one it remembers and calls `on_new_day_come` when the new one is 0.
Nothing waits between the two readings, so they are one sample; `five_sec_tick` reads the clock again behind a call that may
have waited. The hour that is remembered is unset at first: any first hour is new, and if it is 0 it counts as a new day.
-/

namespace SkynetServer.Timer

/-! ### Local time -/

/-- Local time as the hours that follow each other: `hours t` is the number of the hour in which `t` lies, where the hours that
begin a day have the multiples of 24. Less than an hour later at most one new hour has begun. -/
structure LocalTime where
  hours : Int → Int
  mono : ∀ {t t'}, t ≤ t' → hours t ≤ hours t'
  lasts : ∀ {t t'}, t' < t + 3600 → hours t' ≤ hours t + 1

/-- A zone with a fixed offset. -/
def LocalTime.zone (offset : Int) : LocalTime where
  hours := fun t => (t + offset) / 3600
  mono := by
    intro t t' h
    omega
  lasts := by
    intro t t' h
    omega

/-- `os.date('*t').hour`. -/
def LocalTime.hour (time : LocalTime) (t : Int) : Nat := (time.hours t % 24).toNat

/-- A new hour begins at `t`, and it is the first one of a day. -/
def LocalTime.Midnight (time : LocalTime) (t : Int) : Prop := time.hours (t - 1) < time.hours t ∧ time.hour t = 0

instance (time : LocalTime) : DecidablePred time.Midnight := fun _ => inferInstanceAs (Decidable (_ ∧ _))

/-- How many midnights lie after `t` and not after `t'`. -/
def LocalTime.midnights (time : LocalTime) (t t' : Int) : Nat :=
  (List.range (t' - t).toNat).countP fun k : Nat => time.Midnight (t + k + 1)

/-! ### The service -/

/-- What a turn reads from the clock. -/
structure Sample where
  nowtime : Int
  tick : Int

/-- The variables of the service and of the loop. -/
structure State where
  lasthour : Option Nat := none
  lastFiveSec : Int := 0
  lasttime : Option Int := none

inductive Event where
  | onNewDayCome
  | fiveSecTick
deriving DecidableEq

def checkNewHourCome (time : LocalTime) (now : Int) (s : State) : State × List Event :=
  let nowhour := time.hour now
  if some nowhour ≠ s.lasthour then
    ({ s with lasthour := some nowhour }, if nowhour = 0 then [.onNewDayCome] else [])
  else (s, [])

def fiveSecTick (now : Int) (s : State) : State × List Event :=
  if now > s.lastFiveSec then ({ s with lastFiveSec := now + 5 }, [.fiveSecTick]) else (s, [])

/-- A turn of the loop. -/
def turn (time : LocalTime) (s : State) (sample : Sample) : State × List Event :=
  if some sample.nowtime ≠ s.lasttime then
    let (s, newHour) := checkNewHourCome time sample.nowtime { s with lasttime := some sample.nowtime }
    let (s, tick) := fiveSecTick sample.tick s
    (s, newHour ++ tick)
  else (s, [])

/-- The loop over the samples of the clock. -/
def timer (time : LocalTime) : State → List Sample → State × List Event
  | s, [] => (s, [])
  | s, sample :: samples =>
    let (s, events) := turn time s sample
    let (s, events') := timer time s samples
    (s, events ++ events')

/-- How often `on_new_day_come` is called. -/
def newDays (time : LocalTime) (samples : List Sample) : Nat := (timer time {} samples).2.count .onNewDayCome

/-- The samples do not go back, and each follows the one before it in less than an hour. -/
def Sampled (samples : List Sample) : Prop :=
  samples.IsChain fun a b => a.nowtime ≤ b.nowtime ∧ b.nowtime < a.nowtime + 3600

/-- Up to every sample there has been one call for each midnight after the first one. -/
def DaysRight (time : LocalTime) (first : Sample) (samples : List Sample) : Prop :=
  ∀ done sample, done ++ [sample] <+: first :: samples →
    newDays time (done ++ [sample]) = time.midnights first.nowtime sample.nowtime

/-! ### Counting midnights -/

theorem midnights_self (time : LocalTime) (t : Int) : time.midnights t t = 0 := by
  simp [LocalTime.midnights]

theorem midnights_succ (time : LocalTime) {t n : Int} (h : t ≤ n) :
    time.midnights t (n + 1) = time.midnights t n + if time.Midnight (n + 1) then 1 else 0 := by
  have hlength : (n + 1 - t).toNat = (n - t).toNat + 1 := by omega
  have hlast : t + ((n - t).toNat : Int) + 1 = n + 1 := by omega
  rw [LocalTime.midnights, hlength, List.range_succ, List.countP_append, List.countP_singleton, hlast, LocalTime.midnights]
  simp only [decide_eq_true_eq]

theorem midnights_eq (time : LocalTime) {t t' : Int} (h : t ≤ t') :
    (time.midnights t t' : Int) = time.hours t' / 24 - time.hours t / 24 := by
  induction t', h using Int.leInduction with
  | base => simp [midnights_self]
  | succ n hn ih =>
    have hmono := time.mono (show n ≤ n + 1 by omega)
    have hlasts := time.lasts (show n + 1 < n + 3600 by omega)
    rw [midnights_succ time hn]
    by_cases hmid : time.Midnight (n + 1)
    · rw [if_pos hmid]
      simp only [LocalTime.Midnight, LocalTime.hour, add_sub_cancel_right] at hmid
      push_cast
      omega
    · rw [if_neg hmid]
      simp only [LocalTime.Midnight, LocalTime.hour, add_sub_cancel_right] at hmid
      omega

/-! ### The loop -/

theorem timer_append (time : LocalTime) (s : State) (done samples : List Sample) :
    timer time s (done ++ samples) =
      ((timer time (timer time s done).1 samples).1,
        (timer time s done).2 ++ (timer time (timer time s done).1 samples).2) := by
  induction done generalizing s with
  | nil => rfl
  | cons sample done ih =>
    rw [List.cons_append, timer, timer]
    simp only [ih, List.append_assoc]

theorem timer_single (time : LocalTime) (s : State) (sample : Sample) : timer time s [sample] = turn time s sample := by
  simp [timer]

theorem timer_snoc (time : LocalTime) (s : State) (done : List Sample) (sample : Sample) :
    timer time s (done ++ [sample]) =
      ((turn time (timer time s done).1 sample).1,
        (timer time s done).2 ++ (turn time (timer time s done).1 sample).2) := by
  rw [timer_append, timer_single]

theorem count_fiveSecTick (now : Int) (s : State) : (fiveSecTick now s).2.count .onNewDayCome = 0 := by
  unfold fiveSecTick
  split <;> rfl

theorem turn_of_seen (time : LocalTime) {s : State} {sample : Sample} (h : s.lasttime = some sample.nowtime) :
    turn time s sample = (s, []) := by
  rw [turn, if_neg]
  simp [h]

/-- What a turn with a new second remembers, and how often it calls `on_new_day_come`. -/
theorem turn_of_new (time : LocalTime) {s : State} {sample : Sample} (h : s.lasttime ≠ some sample.nowtime) :
    (turn time s sample).1.lasttime = some sample.nowtime ∧
      (turn time s sample).1.lasthour = some (time.hour sample.nowtime) ∧
      (turn time s sample).2.count .onNewDayCome =
        if s.lasthour ≠ some (time.hour sample.nowtime) ∧ time.hour sample.nowtime = 0 then 1 else 0 := by
  have htick : ∀ s : State, (fiveSecTick sample.tick s).1.lasttime = s.lasttime ∧
      (fiveSecTick sample.tick s).1.lasthour = s.lasthour := by
    intro s
    unfold fiveSecTick
    split <;> exact ⟨rfl, rfl⟩
  rw [turn, if_pos (Ne.symm h)]
  simp only [htick, List.count_append, count_fiveSecTick, Nat.add_zero, checkNewHourCome]
  by_cases hhour : s.lasthour = some (time.hour sample.nowtime)
  · simp [hhour]
  · simp only [ne_eq, Ne.symm hhour, hhour, not_false_eq_true, if_true, true_and]
    split <;> rfl

/-- Where the loop stands behind a sample `t`. -/
structure Follows (time : LocalTime) (first t : Int) (out : State × List Event) : Prop where
  le : first ≤ t
  lasttime : out.1.lasttime = some t
  lasthour : out.1.lasthour = some (time.hour t)
  days : out.2.count .onNewDayCome = time.midnights first t + if time.hour first = 0 then 1 else 0

theorem follows_first (time : LocalTime) (first : Sample) :
    Follows time first.nowtime first.nowtime (turn time {} first) := by
  have hunset : ({} : State).lasttime ≠ some first.nowtime := by simp
  obtain ⟨htime, hhour, hcount⟩ := turn_of_new time hunset
  refine ⟨le_rfl, htime, hhour, ?_⟩
  rw [hcount, midnights_self]
  simp

/-- The next sample: the hour it lies in is the one that is remembered or the one that follows it. -/
theorem Follows.turn {time : LocalTime} {first t : Int} {sample : Sample} {out : State × List Event}
    (h : Follows time first t out) (hle : t ≤ sample.nowtime) (hlt : sample.nowtime < t + 3600) :
    Follows time first sample.nowtime ((turn time out.1 sample).1, out.2 ++ (turn time out.1 sample).2) := by
  by_cases hseen : sample.nowtime = t
  · rw [← hseen] at h
    rw [turn_of_seen time h.lasttime, List.append_nil]
    exact h
  · have hnew : out.1.lasttime ≠ some sample.nowtime := by
      rw [h.lasttime]
      exact fun heq => hseen (Option.some.inj heq).symm
    obtain ⟨htime, hhour, hcount⟩ := turn_of_new time hnew
    refine ⟨h.le.trans hle, htime, hhour, ?_⟩
    have hmono := time.mono hle
    have hlasts := time.lasts hlt
    have hbefore := midnights_eq time h.le
    have hafter := midnights_eq time (h.le.trans hle)
    have hmod := Int.emod_nonneg (time.hours t) (show (24 : Int) ≠ 0 by decide)
    have hmod' := Int.emod_nonneg (time.hours sample.nowtime) (show (24 : Int) ≠ 0 by decide)
    have hone : (if out.1.lasthour ≠ some (time.hour sample.nowtime) ∧ time.hour sample.nowtime = 0 then 1 else 0) +
        time.midnights first t = time.midnights first sample.nowtime := by
      rw [h.lasthour]
      simp only [ne_eq, Option.some.injEq, LocalTime.hour]
      split <;> omega
    rw [List.count_append, h.days, hcount]
    omega

theorem follows_timer (time : LocalTime) (first : Sample) (samples : List Sample) (hsampled : Sampled (first :: samples))
    (last : Sample) (hlast : (first :: samples).getLast? = some last) :
    Follows time first.nowtime last.nowtime (timer time {} (first :: samples)) := by
  induction samples using List.reverseRecOn generalizing last with
  | nil =>
    obtain rfl := Option.some.inj hlast
    rw [timer_single]
    exact follows_first time first
  | append_singleton done sample ih =>
    rw [← List.cons_append] at hsampled hlast ⊢
    rw [List.getLast?_concat] at hlast
    obtain rfl := Option.some.inj hlast
    obtain ⟨hdone, -, hstep⟩ := List.isChain_append.mp hsampled
    have hprev : (first :: done).getLast? = some ((first :: done).getLast (List.cons_ne_nil _ _)) :=
      List.getLast?_eq_some_getLast _
    obtain ⟨hle, hlt⟩ := hstep _ hprev sample rfl
    rw [timer_snoc]
    exact (ih hdone _ hprev).turn hle hlt

/-- **New days.** There is one call for each midnight, at every sample of every run, exactly when the first sample does not lie
in the first hour of a day. -/
theorem days_right_iff_first_hour (time : LocalTime) (first : Sample) (samples : List Sample)
    (hsampled : Sampled (first :: samples)) : DaysRight time first samples ↔ time.hour first.nowtime ≠ 0 := by
  have hdays : ∀ done sample, done ++ [sample] <+: first :: samples →
      newDays time (done ++ [sample]) =
        time.midnights first.nowtime sample.nowtime + if time.hour first.nowtime = 0 then 1 else 0 := by
    intro done sample hprefix
    have hsampled' : Sampled (done ++ [sample]) := hsampled.prefix hprefix
    have hlast : (done ++ [sample]).getLast? = some sample := List.getLast?_concat
    cases hdone : done ++ [sample] with
    | nil => simp at hdone
    | cons first' rest =>
      rw [hdone] at hprefix hsampled' hlast
      obtain ⟨rfl, -⟩ := List.cons_prefix_cons.mp hprefix
      exact (follows_timer time first' rest hsampled' sample hlast).days
  constructor
  · intro hright hzero
    have hprefix : [] ++ [first] <+: first :: samples := List.cons_prefix_cons.mpr ⟨rfl, List.nil_prefix⟩
    have hone := hdays [] first hprefix
    rw [hright [] first hprefix, if_pos hzero] at hone
    omega
  · intro hne done sample hprefix
    rw [hdays done sample hprefix, if_neg hne, Nat.add_zero]

/-- From half past eleven in the evening on. -/
theorem days_right_iff_first_hour_before_midnight :
    Sampled [⟨84600, 84600⟩, ⟨86399, 86399⟩, ⟨86400, 86401⟩, ⟨86400, 86401⟩, ⟨88000, 88000⟩] ∧
      DaysRight (.zone 0) ⟨84600, 84600⟩ [⟨86399, 86399⟩, ⟨86400, 86401⟩, ⟨86400, 86401⟩, ⟨88000, 88000⟩] := by
  have hsampled : Sampled [⟨84600, 84600⟩, ⟨86399, 86399⟩, ⟨86400, 86401⟩, ⟨86400, 86401⟩, ⟨88000, 88000⟩] := by
    simp [Sampled]
  exact ⟨hsampled, (days_right_iff_first_hour (.zone 0) _ _ hsampled).mpr (by decide)⟩

/-- The service starts half an hour after midnight. -/
theorem not_days_right_after_midnight :
    ¬ ∀ (time : LocalTime) (first : Sample) (samples : List Sample), Sampled (first :: samples) →
      DaysRight time first samples := by
  intro h
  have hright := h (.zone 0) ⟨1800, 1800⟩ [] (by simp [Sampled]) [] ⟨1800, 1800⟩ List.prefix_rfl
  rw [midnights_self] at hright
  exact absurd hright (by decide)

end SkynetServer.Timer
